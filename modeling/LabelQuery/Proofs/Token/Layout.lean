import LabelQuery.Proofs.Token.Division
import LabelQuery.Token.Layout

/-!
# Tokens found again in their layout

Tokens that are laid out as text come back from the text if and only if no two neighbours run
together. **The law** (`tokenize_layout_iff`) is exact: blanks are needed where two words are
neighbours and where a lone sign stands in front of a sign of equality, and nowhere else, whatever
blanks they are.

* A text that spells a kind is one token by itself, of that kind (`Token.isWhole_of_isSpelledBy`).
* Behind it, the token is found in the layout exactly if it takes nothing of what follows
  (`Token.scan_eq_cons_iff`), which by the law of cuts is a matter of the first character there
  (`Layout.reach_append_iff`).
* So each pair of neighbours decides about its first token alone, also in a long run of signs: the
  induction along the layout never looks back.
-/

namespace LabelQuery

open Text (isBlank byteLength)

namespace Token

/-! ## Texts that are one token -/

/-- Whether the characters, of which the first one is given apart, are one token of the kind. -/
structure IsWhole (kind : Kind) (c : Char) (cs : List Char) : Prop where
  /-- A token begins with the first of them. -/
  solid : isBlank c = false
  /-- The token reaches over all of them. -/
  reach : Token.reach c cs = cs
  /-- The token is of the kind. -/
  kind : Kind.ofChars (c :: cs) = kind

instance (kind : Kind) (c : Char) (cs : List Char) : Decidable (IsWhole kind c cs) :=
  decidable_of_iff (isBlank c = false ∧ Token.reach c cs = cs ∧ Kind.ofChars (c :: cs) = kind)
    ⟨fun ⟨solid, reach, kind⟩ => ⟨solid, reach, kind⟩,
      fun ⟨solid, reach, kind⟩ => ⟨solid, reach, kind⟩⟩

/-- A word is one token by itself, and a value, since the whole of it is no keyword. -/
theorem isWhole_of_isWord {text : String} (word : IsWord text) :
    ∃ c cs, text.toList = c :: cs ∧ IsWhole .value c cs := by
  have chars := word.isWordChar
  have ne_in : text.toList ≠ ['i', 'n'] := fun h => word.ne_in (String.toList_inj.mp h)
  have ne_notin : text.toList ≠ ['n', 'o', 't', 'i', 'n'] := fun h =>
    word.ne_notin (String.toList_inj.mp h)
  obtain ⟨c, cs, whole⟩ := List.exists_cons_of_ne_nil
    (show text.toList ≠ [] from fun h => word.nonempty (String.toList_inj.mp h))
  rw [whole] at chars ne_in ne_notin
  have first : isWordChar c = true := chars c List.mem_cons_self
  refine ⟨c, cs, whole, isBlank_of_isWordChar first, ?_, ?_⟩
  · rw [reach_of_plain (isMark_of_isWordChar first)]
    exact List.takeWhile_eq_self_iff.mpr fun d mem => chars d (List.mem_cons_of_mem _ mem)
  · rw [Kind.ofChars_of_word chars, if_neg ne_in, if_neg ne_notin]

/-- **A text that spells a kind is one token**, and of that kind. Words are any number of texts; of
the other kinds each has a few spellings, which are tried. -/
theorem isWhole_of_isSpelledBy {kind : Kind} {text : String} (spelled : kind.IsSpelledBy text) :
    ∃ c cs, text.toList = c :: cs ∧ IsWhole kind c cs := by
  by_cases value : kind = .value
  · subst value
    exact isWhole_of_isWord (by simpa [Kind.IsSpelledBy] using spelled)
  · rw [Kind.IsSpelledBy, if_neg value] at spelled
    cases kind with
    | value => exact absurd rfl value
    | equal =>
      simp only [Kind.literals, List.mem_cons, List.not_mem_nil, or_false] at spelled
      rcases spelled with rfl | rfl <;> exact ⟨_, _, rfl, by decide⟩
    | _ =>
      obtain rfl := List.mem_singleton.mp spelled
      exact ⟨_, _, rfl, by decide⟩

section Whole

variable {kind : Kind} {c : Char} {cs : List Char} (whole : IsWhole kind c cs)

include whole

theorem IsWhole.isPunctuation_eq : kind.isPunctuation = isMark c := by
  have found := Kind.isPunctuation_ofChars whole.solid cs
  rwa [whole.reach, whole.kind] at found

/-- **The token is found in front of a text** exactly if it takes nothing of it, and the text is
scanned as it is alone. -/
theorem scan_eq_cons_iff (offset : Nat) (more : List Char) (tokens : List Token) :
    scan offset (c :: cs ++ more) = ⟨kind, String.ofList (c :: cs), offset⟩ :: tokens ↔
      reach c (cs ++ more) = cs ∧ scan (offset + byteLength (c :: cs)) more = tokens := by
  rw [List.cons_append, scan_token offset whole.solid]
  constructor
  · intro same
    obtain ⟨first, rest⟩ := List.cons.inj same
    have text := String.ofList_inj.mp (congrArg Token.text first)
    obtain ⟨-, taken⟩ := List.cons.inj text
    rw [taken, List.drop_left] at rest
    exact ⟨taken, rest⟩
  · rintro ⟨taken, rest⟩
    rw [taken, List.drop_left, whole.kind, rest]

/-- What the first token and a text behind it have in common is a word, if it is anything. Of the
token only its kind is asked, and of the text only its first character. -/
theorem IsWhole.wordsMeet_iff (more : List Char) :
    WordsMeet (c :: cs) more ↔
      kind.isPunctuation = false ∧ ∃ d ∈ more.head?, isWordChar d = true := by
  rw [WordsMeet, whole.isPunctuation_eq]
  refine and_congr_left' ⟨?_, fun plain => ?_⟩
  · rintro ⟨d, last, word⟩
    cases mark : isMark c with
    | false => rfl
    | true =>
      have other := isWordChar_getLast?_punctuation mark cs d
      rw [whole.reach] at other
      exact absurd ((other last).symm.trans word) Bool.false_ne_true
  · have chars := isWordChar_of_mem_token whole.solid plain cs
    rw [whole.reach] at chars
    exact ⟨_, List.getLast?_eq_some_getLast (List.cons_ne_nil _ _), chars _ (List.getLast_mem _)⟩

end Whole

end Token

namespace Layout

open Token (IsWhole reach scan)

/-- Whether the entry is a spelled token with nothing but blanks behind it. -/
def Entry.IsProper (entry : Entry) : Prop :=
  entry.kind.IsSpelledBy entry.text ∧ ∀ c ∈ entry.gap.toList, isBlank c = true

/-! ## One pair of neighbours -/

/-- The text of a row of tokens begins with that of its first token and the gap behind it. -/
theorem charsOf_cons (entry : Entry) (entries : List Entry) :
    charsOf (entry :: entries) = entry.text.toList ++ (entry.gap.toList ++ charsOf entries) := by
  rw [charsOf, List.flatMap_cons, List.append_assoc, charsOf]

/-- A token takes nothing of blanks, nor of the end of the text, so a gap keeps it apart from
whatever comes next. -/
theorem reach_append_of_blank {kind : Token.Kind} {c : Char} {cs more : List Char}
    (whole : IsWhole kind c cs) (blank : ∀ d ∈ more.head?, isBlank d = true) :
    reach c (cs ++ more) = cs := by
  have severs := Token.severs_of_blank blank
  rw [Token.reach_append_eq_iff whole.solid whole.reach]
  constructor
  · rintro ⟨-, d, head, word⟩
    exact absurd ((severs d head).1.symm.trans word) Bool.false_ne_true
  · rintro ⟨-, head⟩
    exact (severs '=' head).2 rfl

/-- **A token takes nothing of the next one** exactly if it does not run into it. The law of cuts is
used for two tokens that touch, and only the first character of the second one counts. -/
theorem reach_append_iff {first second : Entry} {c : Char} {cs : List Char}
    (text : first.text.toList = c :: cs) (whole : IsWhole first.kind c cs)
    (spelled : second.kind.IsSpelledBy second.text) (rest : List Char) :
    reach c (cs ++ (second.text.toList ++ rest)) = cs ↔ ¬ first.RunsInto second := by
  obtain ⟨d, ds, text', whole'⟩ := Token.isWhole_of_isSpelledBy spelled
  have lone : first.text = "=" ∨ first.text = "!" ↔ c :: cs = ['='] ∨ c :: cs = ['!'] := by
    rw [← text, ← String.toList_inj, ← String.toList_inj]
    rfl
  rw [Token.reach_append_eq_iff whole.solid whole.reach, whole.wordsMeet_iff, Entry.RunsInto, lone,
    text', whole'.isPunctuation_eq]
  have word : Token.isWordChar d = !Token.isMark d := Token.isWordChar_of_solid whole'.solid
  simp [word]

/-! ## The whole layout -/

/-- The tokens of the entries are found from byte `offset` on exactly if the entries are separated.
By induction on the entries, where each step is about a token and the one behind it. -/
theorem scan_charsOf_iff (offset : Nat) {entries : List Entry}
    (proper : ∀ entry ∈ entries, entry.IsProper) :
    scan offset (charsOf entries) = tokensFrom offset entries ↔ IsSeparated entries := by
  induction entries generalizing offset with
  | nil => exact iff_of_true (Token.scan_nil offset) trivial
  | cons first entries ih =>
    obtain ⟨spelled, blank⟩ := proper first List.mem_cons_self
    have others : ∀ entry ∈ entries, entry.IsProper := fun entry mem =>
      proper entry (List.mem_cons_of_mem _ mem)
    obtain ⟨c, cs, text, whole⟩ := Token.isWhole_of_isSpelledBy spelled
    have same : first.text = String.ofList (c :: cs) := by rw [← text, String.ofList_toList]
    have tail := ih (offset + byteLength first.text.toList + byteLength first.gap.toList) others
    rw [← Token.scan_blanks _ blank, text] at tail
    rw [charsOf_cons, text, tokensFrom, same, String.toList_ofList,
      Token.scan_eq_cons_iff whole, tail]
    cases entries with
    | nil =>
      have alone : reach c (cs ++ (first.gap.toList ++ charsOf [])) = cs := by
        refine reach_append_of_blank whole fun d head => blank d ?_
        rw [charsOf, List.flatMap_nil, List.append_nil] at head
        exact List.mem_of_mem_head? head
      exact iff_of_true ⟨alone, trivial⟩ trivial
    | cons second entries =>
      rw [IsSeparated]
      refine and_congr_left' ?_
      by_cases touching : first.gap = ""
      · rw [touching, charsOf_cons]
        -- without a gap the next token begins what the first could reach over
        have apart := reach_append_iff text whole (others second List.mem_cons_self).1
          (second.gap.toList ++ charsOf entries)
        simpa using apart
      · obtain ⟨d, ds, gap⟩ := List.exists_cons_of_ne_nil
          (show first.gap.toList ≠ [] from fun h => touching (String.toList_inj.mp h))
        refine iff_of_true (reach_append_of_blank whole fun e head => ?_)
          fun h => absurd h touching
        rw [gap] at head blank
        cases head
        exact blank d List.mem_cons_self

end Layout

/-- **The tokens of a layout are found again in its text**, all of them as they are and where they
are written, if and only if no two neighbours without a gap run together. -/
theorem tokenize_layout_iff {layout : Layout} (proper : layout.IsProper) :
    tokenize (String.ofList layout.chars) = .ok layout.tokens ↔
      Layout.IsSeparated layout.entries := by
  have entries : ∀ entry ∈ layout.entries, entry.IsProper := fun entry mem =>
    ⟨proper.spelled entry mem, proper.gap entry mem⟩
  rw [tokenize_eq_ok, Except.ok.injEq, String.toList_ofList, Layout.chars, Layout.tokens,
    Token.scan_blanks 0 proper.lead, Nat.zero_add, Layout.scan_charsOf_iff _ entries]

/-- A run of signs that touch, behind a word and behind a lone sign of equality. -/
theorem tokenize_layout_iff_signs :
    let signs : List Layout.Entry :=
      [⟨.exclamation, "!", ""⟩, ⟨.notEqual, "!=", ""⟩, ⟨.equal, "=", "\u3000"⟩, ⟨.equal, "=", ""⟩,
        ⟨.inKeyword, "in", ""⟩]
    let apart : Layout := ⟨"\t", ⟨.value, "é", ""⟩ :: signs⟩
    let touching : Layout := ⟨"\t", ⟨.equal, "=", ""⟩ :: ⟨.equal, "==", ""⟩ :: signs⟩
    apart.IsProper ∧ tokenize (String.ofList apart.chars) = .ok apart.tokens ∧
      touching.IsProper ∧ tokenize (String.ofList touching.chars) ≠ .ok touching.tokens := by
  intro signs apart touching
  have gaps : (apart.entries ++ touching.entries).all
      (fun entry => entry.gap.toList.all Text.isBlank) = true := by decide
  have blank : ∀ entry ∈ apart.entries ++ touching.entries, ∀ c ∈ entry.gap.toList,
      Text.isBlank c = true := fun entry mem =>
    List.all_eq_true.mp (List.all_eq_true.mp gaps entry mem)
  have lead : ∀ c ∈ "\t".toList, Text.isBlank c = true := List.all_eq_true.mp (by decide)
  have proper : apart.IsProper :=
    ⟨lead, fun entry mem => blank entry (List.mem_append_left _ mem), by decide⟩
  have proper' : touching.IsProper :=
    ⟨lead, fun entry mem => blank entry (List.mem_append_right _ mem), by decide⟩
  refine ⟨proper, (tokenize_layout_iff proper).mpr ?_, proper', fun found => ?_⟩
  · simp [apart, signs, Layout.IsSeparated, Layout.Entry.RunsInto, Token.Kind.isPunctuation]
  · have separated := (tokenize_layout_iff proper').mp found
    exact separated.1 rfl (.inr ⟨.inl rfl, rfl⟩)

end LabelQuery
